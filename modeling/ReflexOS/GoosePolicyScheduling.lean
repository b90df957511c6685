import ReflexOS.GooseKernelPolicy
import ReflexOS.SchedPriorities

set_option autoImplicit false

/-!
# The purpose reaches the processor

Where the tasks are on the Reflex scheduler the policy is one of them. It sets the priorities of
the field tasks by their names; between two of its ticks the scheduler decides.
-/
namespace ReflexOS.Goose
open Sched Runs VmTernary

/-- `reflex_task_get_by_name`, and `reflex_task_set_priority` where the priority is another. -/
def applyRequest (S : Statics) (r : CName × ℤ) : Statics :=
  match schedFindByName r.1 S with
  | none => S
  | some i => if schedGetPriority i S ≠ r.2 then schedSetPriority i r.2 S else S

def applyRequests (S : Statics) (requests : List (CName × ℤ)) : Statics :=
  requests.foldl applyRequest S

/-- The name of a field's task. -/
def PulseName (name : CName) : Prop := ascii "p_" <+: name

/-- No two tasks go by one pulse name. -/
def OneTaskPerName (tasks : ℕ → Task) : Prop :=
  ∀ i < schedMaxTasks, ∀ j < schedMaxTasks, (tasks i).Alive → (tasks j).Alive →
    PulseName (tasks j).name → (tasks i).name = (tasks j).name → i = j

/-- The scheduler with the policy on top of it. -/
structure Governed where
  machine : Machine
  policy : KernelPolicy

def Governed.boot : Governed := ⟨Machine.boot, [], [], [], none⟩

inductive GovernedLabel where
  | act (a : Act)
  | tick (v : PolicyView) (turn : PolicyTurn)
  | holonCreate (name : CName) (domain : Option CName)
  | holonAddField (name : Option CName) (field : Option ℕ)

/-- Nobody but the policy sets a priority, and no other task runs while it does. -/
inductive GovernedStep (atlas : Atlas) : Governed → GovernedLabel → Governed → Prop where
  | act {G : Governed} {a : Act} (henabled : G.machine.Enabled a)
      (hset : ∀ i p, a ≠ .setPriority i p) :
      GovernedStep atlas G (.act a) ⟨G.machine.step a, G.policy⟩
  | tick {G : Governed} (v : PolicyView) (hcalling : G.machine.Calling) :
      GovernedStep atlas G (.tick v (kernelPolicyTick atlas v G.policy))
        ⟨{ G.machine with
            statics := applyRequests G.machine.statics
              (kernelPolicyTick atlas v G.policy).requests },
          (kernelPolicyTick atlas v G.policy).policy⟩
  | holonCreate {G : Governed} (name : CName) (domain : Option CName) :
      GovernedStep atlas G (.holonCreate name domain)
        ⟨G.machine, { G.policy with holons := (holonCreate name domain G.policy.holons).2 }⟩
  | holonAddField {G : Governed} (name : Option CName) (field : Option ℕ) :
      GovernedStep atlas G (.holonAddField name field)
        ⟨G.machine, { G.policy with holons := (holonAddField name field G.policy.holons).2 }⟩

/-- A field task is created under a name that no other task has. -/
def NewName (G : Governed) (l : GovernedLabel) : Prop :=
  ∀ req memory, l = .act (.create req memory) → PulseName (req.name.take (schedNameMax - 1)) →
    ∀ i < schedMaxTasks, (G.machine.statics.tasks i).Alive →
      (G.machine.statics.tasks i).name ≠ req.name.take (schedNameMax - 1)

/-- Neither a tick nor the creation of a field task. -/
def BetweenTicks : GovernedLabel → Prop
  | .act (.create req _) => ¬ PulseName (req.name.take (schedNameMax - 1))
  | .tick _ _ => False
  | _ => True

section Requests

theorem schedFindByName_some {S : Statics} {name : CName} {i : ℕ}
    (h : schedFindByName name S = some i) :
    i < schedMaxTasks ∧ (S.tasks i).Alive ∧ (S.tasks i).name = name := by
  unfold schedFindByName schedFindIndex at h
  have hi := List.find?_some h
  simp only [Bool.and_eq_true, decide_eq_true_eq] at hi
  exact ⟨List.mem_range.mp (List.mem_of_find?_eq_some h), ⟨hi.1.1.1, hi.1.1.2⟩, hi.2⟩

theorem schedFindByName_alive {S : Statics} {i : ℕ} (hlt : i < schedMaxTasks)
    (halive : (S.tasks i).Alive) (hne : (S.tasks i).name ≠ []) :
    schedFindByName (S.tasks i).name S ≠ none := by
  intro hnone
  have := List.find?_eq_none.mp hnone i (List.mem_range.mpr hlt)
  simp [halive.1, halive.2, hne] at this

/-- A request changes priorities only. -/
theorem applyRequest_same (S : Statics) (r : CName × ℤ) (j : ℕ) :
    ∃ p, (applyRequest S r).tasks j = { S.tasks j with priority := p } := by
  unfold applyRequest
  split
  · exact ⟨_, rfl⟩
  next i _ =>
    split
    · by_cases hj : j = i
      · subst hj
        exact ⟨r.2, S.setTask_self j _⟩
      · exact ⟨_, S.setTask_ne _ hj⟩
    · exact ⟨_, rfl⟩

theorem PulseName.ne_nil {name : CName} (h : PulseName name) : name ≠ [] := by
  rintro rfl
  exact absurd (List.prefix_nil.mp h) (by decide)

/-- A request reaches the task of its name and no other. -/
theorem applyRequest_priority {S : Statics} (hone : OneTaskPerName S.tasks) {j : ℕ}
    (hlt : j < schedMaxTasks) (halive : (S.tasks j).Alive) (hpulse : PulseName (S.tasks j).name)
    (r : CName × ℤ) : ((applyRequest S r).tasks j).priority =
      if (S.tasks j).name = r.1 then r.2 else (S.tasks j).priority := by
  have hfound := schedFindByName_alive hlt halive hpulse.ne_nil
  unfold applyRequest
  split
  next hnone =>
    exact (if_neg fun heq : (S.tasks j).name = r.1 => hfound (heq ▸ hnone)).symm
  next i hi =>
    obtain ⟨hilt, hialive, hname⟩ := schedFindByName_some hi
    by_cases hj : (S.tasks j).name = r.1
    · obtain rfl : i = j := hone i hilt j hlt hialive halive hpulse (hname.trans hj.symm)
      rw [if_pos hj]
      split
      · exact congrArg Task.priority (S.setTask_self i _)
      next hsame => exact not_not.mp hsame
    · have hij : j ≠ i := fun heq => hj (heq ▸ hname)
      rw [if_neg hj]
      split
      · exact congrArg Task.priority (S.setTask_ne _ hij)
      · rfl

theorem OneTaskPerName.of_same {tasks tasks' : ℕ → Task} (h : OneTaskPerName tasks)
    (hsame : ∀ j, ∃ p, tasks' j = { tasks j with priority := p }) : OneTaskPerName tasks' := by
  intro i hi j hj hialive hjalive hpulse hname
  obtain ⟨p, hp⟩ := hsame i
  obtain ⟨q, hq⟩ := hsame j
  rw [hp] at hialive hname
  rw [hq] at hjalive hpulse hname
  exact h i hi j hj hialive hjalive hpulse hname

theorem OneTaskPerName.of_kept {tasks tasks' : ℕ → Task} (h : OneTaskPerName tasks)
    (hkept : KeptAll tasks tasks') : OneTaskPerName tasks' := by
  intro i hi j hj hialive hjalive hpulse hname
  rw [(hkept i).name hialive, (hkept j).name hjalive] at hname
  rw [(hkept j).name hjalive] at hpulse
  exact h i hi j hj ((hkept i).alive hialive) ((hkept j).alive hjalive) hpulse hname

/-- Requests that agree on a name leave its task at the priority they ask for. -/
theorem applyRequests_priority {S : Statics} {requests : List (CName × ℤ)} {j : ℕ} {p : ℤ}
    (hone : OneTaskPerName S.tasks) (hlt : j < schedMaxTasks) (halive : (S.tasks j).Alive)
    (hpulse : PulseName (S.tasks j).name)
    (hagree : ∀ r ∈ requests, (S.tasks j).name = r.1 → r.2 = p)
    (hasked : (∃ r ∈ requests, (S.tasks j).name = r.1) ∨ (S.tasks j).priority = p) :
    ((applyRequests S requests).tasks j).priority = p := by
  induction requests generalizing S with
  | nil =>
    rcases hasked with ⟨r, hr, -⟩ | hsame
    · cases hr
    · exact hsame
  | cons r requests ih =>
    obtain ⟨q, hq⟩ := applyRequest_same S r j
    have hname : ((applyRequest S r).tasks j).name = (S.tasks j).name := by rw [hq]
    have hpriority := applyRequest_priority hone hlt halive hpulse r
    apply ih (hone.of_same (applyRequest_same S r))
    · rw [hq]
      exact halive
    · rw [hname]
      exact hpulse
    · intro r' hr' hr
      exact hagree r' (List.mem_cons_of_mem r hr') (hname ▸ hr)
    · by_cases hr : (S.tasks j).name = r.1
      · rw [if_pos hr] at hpriority
        exact .inr (hpriority.trans (hagree r List.mem_cons_self hr))
      · rw [if_neg hr] at hpriority
        rcases hasked with ⟨r', hr', hr''⟩ | hsame
        · rcases List.mem_cons.mp hr' with rfl | hr'
          · exact absurd hr'' hr
          · exact .inl ⟨r', hr', hname.trans hr''⟩
        · exact .inr (hpriority.trans hsame)

end Requests

/-- The tasks are at the priorities asked for. -/
def Ranked (requests : List (CName × ℤ)) (tasks : ℕ → Task) : Prop :=
  ∀ i < schedMaxTasks, (tasks i).Alive →
    ∀ r ∈ requests, (tasks i).name = r.1 → (tasks i).priority = r.2

theorem Ranked.of_kept {requests : List (CName × ℤ)} {tasks tasks' : ℕ → Task}
    (h : Ranked requests tasks) (hkept : KeptAll tasks tasks') : Ranked requests tasks' := by
  intro i hi halive r hr hname
  rw [(hkept i).name halive] at hname
  rw [(hkept i).priority halive]
  exact h i hi ((hkept i).alive halive) r hr hname

theorem Ranked.of_create {requests : List (CName × ℤ)} {M : Machine} {req : TaskRequest}
    {memory : Bool} (h : Ranked requests M.statics.tasks)
    (hpulse : ∀ r ∈ requests, PulseName r.1)
    (hother : ¬ PulseName (req.name.take (schedNameMax - 1))) :
    Ranked requests (M.create req memory).statics.tasks := by
  rcases M.create_cases req memory with heq | ⟨k, stack, heq⟩ <;> rw [heq]
  · exact h
  · intro i hi halive r hr hname
    by_cases hik : i = k
    · subst hik
      rw [Statics.setTask_self] at hname
      have hcut : req.name.take (schedNameMax - 1) = r.1 := hname
      exact absurd (hcut ▸ hpulse r hr) hother
    · rw [Statics.setTask_ne _ _ hik] at halive hname ⊢
      exact h i hi halive r hr hname

/-- No ready task had asked for more than the one that is chosen. -/
theorem Ranked.chosen {requests : List (CName × ℤ)} {S : Statics} {i j : ℕ} {r q : CName × ℤ}
    (h : Ranked requests S.tasks) (hchosen : (pickNext S).2.2 = some i) (hr : r ∈ requests)
    (hi : ((pickNext S).1.tasks i).name = r.1) (hj : j < schedMaxTasks)
    (hready : ((pickNext S).1.tasks j).state = .ready) (hq : q ∈ requests)
    (hjname : ((pickNext S).1.tasks j).name = q.1) : q.2 ≤ r.2 := by
  have hswept := h.of_kept (pickNext_kept S)
  have top := schedSelect_top (pickNext S).1.tasks schedMaxTasks
    (afterCurrent (pickNext S).1.current) hchosen
  calc
    q.2 = ((pickNext S).1.tasks j).priority :=
      (hswept j hj (.of_state hready (by decide)) q hq hjname).symm
    _ ≤ ((pickNext S).1.tasks i).priority := top.top j hj hready
    _ = r.2 := hswept i top.lt (.of_state top.ready (by decide)) r hr hi

theorem OneTaskPerName.of_create {M : Machine} {req : TaskRequest} {memory : Bool}
    (h : OneTaskPerName M.statics.tasks)
    (hnew : PulseName (req.name.take (schedNameMax - 1)) → ∀ i < schedMaxTasks,
      (M.statics.tasks i).Alive → (M.statics.tasks i).name ≠ req.name.take (schedNameMax - 1)) :
    OneTaskPerName (M.create req memory).statics.tasks := by
  rcases M.create_cases req memory with heq | ⟨k, stack, heq⟩ <;> rw [heq]
  · exact h
  · intro i hi j hj hialive hjalive hpulse hname
    by_cases hik : i = k <;> by_cases hjk : j = k
    · rw [hik, hjk]
    · subst hik
      rw [Statics.setTask_self, Statics.setTask_ne _ _ hjk] at hname
      rw [Statics.setTask_ne _ _ hjk] at hjalive hpulse
      have hcut : req.name.take (schedNameMax - 1) = (M.statics.tasks j).name := hname
      exact absurd hcut.symm (hnew (hcut ▸ hpulse) j hj hjalive)
    · subst hjk
      rw [Statics.setTask_self, Statics.setTask_ne _ _ hik] at hname
      rw [Statics.setTask_ne _ _ hik] at hialive
      rw [Statics.setTask_self] at hpulse
      exact absurd hname (hnew hpulse i hi hialive)
    · rw [Statics.setTask_ne _ _ hik] at hialive hname
      rw [Statics.setTask_ne _ _ hjk] at hjalive hpulse hname
      exact h i hi j hj hialive hjalive hpulse hname

section Governing

variable {atlas : Atlas} {G G' : Governed} {l : GovernedLabel}

/-- What the policy relies on. -/
structure Governed.Sound (G : Governed) : Prop where
  machine : G.machine.Sound
  names : OneTaskPerName G.machine.statics.tasks

theorem Governed.Sound.boot : Governed.boot.Sound :=
  ⟨Machine.boot_sound, fun _ _ _ _ halive => absurd rfl halive.1⟩

theorem applyRequest_sound {M : Machine} (h : M.Sound) (r : CName × ℤ) :
    Machine.Sound { M with statics := applyRequest M.statics r } := by
  unfold applyRequest
  split
  · exact h
  next i hi =>
    split
    · exact h.setPriority (schedFindByName_some hi).1 r.2
    · exact h

theorem applyRequests_sound {M : Machine} (h : M.Sound) (requests : List (CName × ℤ)) :
    Machine.Sound { M with statics := applyRequests M.statics requests } := by
  induction requests generalizing M with
  | nil => exact h
  | cons r requests ih => exact ih (applyRequest_sound h r)

theorem applyRequests_same (S : Statics) (requests : List (CName × ℤ)) (j : ℕ) :
    ∃ p, (applyRequests S requests).tasks j = { S.tasks j with priority := p } := by
  induction requests generalizing S with
  | nil => exact ⟨_, rfl⟩
  | cons r requests ih =>
    obtain ⟨p, hp⟩ := ih (applyRequest S r)
    obtain ⟨q, hq⟩ := applyRequest_same S r j
    exact ⟨p, by rw [applyRequests, List.foldl_cons, ← applyRequests, hp, hq]⟩

theorem GovernedStep.sound (h : G.Sound) (hs : Guarded NewName (GovernedStep atlas) G l G') :
    G'.Sound := by
  cases hs.2 with
  | @act a henabled hset =>
    constructor
    · exact h.machine.step henabled
    · by_cases hcreate : ∃ req memory, a = .create req memory
      · obtain ⟨req, memory, rfl⟩ := hcreate
        exact h.names.of_create (hs.1 req memory rfl)
      · exact h.names.of_kept (h.machine.step_kept henabled
          (fun req memory heq => hcreate ⟨req, memory, heq⟩) hset)
  | tick v hcalling =>
    exact ⟨applyRequests_sound h.machine _, h.names.of_same (applyRequests_same _ _)⟩
  | holonCreate name domain => exact ⟨h.machine, h.names⟩
  | holonAddField name field => exact ⟨h.machine, h.names⟩

theorem PolicyView.requests_pulse {v : PolicyView} {P : KernelPolicy} {r : CName × ℤ}
    (h : r ∈ (kernelPolicyTick atlas v P).requests) : PulseName r.1 := by
  obtain ⟨fid, -, heq⟩ := name_of_request h
  exact heq ▸ List.prefix_append _ _

/-- Fields whose tasks have different names ask for one priority each. -/
theorem kernelPolicyTick_ranked {v : PolicyView} (h : OneTaskPerName G.machine.statics.tasks)
    (hnames : ∀ f ∈ v.supervised, ∀ g ∈ v.supervised,
      pulseTaskName (v.fields f).name = pulseTaskName (v.fields g).name → f = g) :
    Ranked (kernelPolicyTick atlas v G.policy).requests
      (applyRequests G.machine.statics (kernelPolicyTick atlas v G.policy).requests).tasks := by
  intro i hi halive r hr hname
  obtain ⟨p, hp⟩ := applyRequests_same G.machine.statics
    (kernelPolicyTick atlas v G.policy).requests i
  rw [hp] at halive hname
  apply applyRequests_priority h hi halive
  · exact hname ▸ PolicyView.requests_pulse hr
  · intro r' hr' hname'
    obtain ⟨f, hf, rfl⟩ := List.mem_map.mp hr
    obtain ⟨g, hg, rfl⟩ := List.mem_map.mp hr'
    rw [hnames f hf g hg (hname.symm.trans hname')]
  · exact .inl ⟨r, hr, hname⟩

theorem GovernedStep.ranked {requests : List (CName × ℤ)} (h : G.Sound)
    (hranked : Ranked requests G.machine.statics.tasks)
    (hpulse : ∀ r ∈ requests, PulseName r.1) (hbetween : BetweenTicks l)
    (hs : GovernedStep atlas G l G') : Ranked requests G'.machine.statics.tasks := by
  cases hs with
  | @act a henabled hset =>
    by_cases hcreate : ∃ req memory, a = .create req memory
    · obtain ⟨req, memory, rfl⟩ := hcreate
      exact hranked.of_create hpulse hbetween
    · exact hranked.of_kept (h.machine.step_kept henabled
        (fun req memory heq => hcreate ⟨req, memory, heq⟩) hset)
  | tick v hcalling => exact hbetween.elim
  | holonCreate name domain => exact hranked
  | holonAddField name field => exact hranked

/-- Until the next tick the tasks stay as the last one ranked them. -/
theorem Governed.ranked_run {requests : List (CName × ℤ)} {ls : List GovernedLabel}
    (hrun : Run (Guarded NewName (GovernedStep atlas)) G ls G') (h : G.Sound)
    (hranked : Ranked requests G.machine.statics.tasks)
    (hpulse : ∀ r ∈ requests, PulseName r.1) (hbetween : ∀ l ∈ ls, BetweenTicks l) :
    Ranked requests G'.machine.statics.tasks := by
  induction hrun with
  | nil _ => exact hranked
  | cons hs _ ih =>
    apply ih (GovernedStep.sound h hs)
    · exact GovernedStep.ranked h hranked hpulse (hbetween _ List.mem_cons_self) hs.2
    · exact fun l hl => hbetween l (List.mem_cons_of_mem _ hl)

/-- A field that is held back never asks for what a field that is engaged asks for. -/
theorem PolicyView.withheld_lt_engaged (v : PolicyView) (f g : ℕ) :
    (v.request (-1) f).2 < (v.request 1 g).2 := by
  have hlow := pulsePriority_withheld (decide (v.purpose ≠ [])) (learnedRoutes (v.fields f))
  have hhigh := pulsePriority_engaged (decide (v.purpose ≠ [])) (learnedRoutes (v.fields g))
  calc
    (v.request (-1) f).2 = pulseBasePriority := hlow
    _ < pulseBasePriority + pulsePurposeBoost := by decide
    _ ≤ (v.request 1 g).2 := hhigh

end Governing

/-- The field of the purpose routes from a cell in its domain; the other is in a holon. -/
def ledView : PolicyView where
  purpose := ascii "led"
  supervised := [0, 1]
  fields fid :=
    if fid = 0 then
      ⟨ascii "led", [⟨ascii "r", makeCoord 1 1 1, zeroCoord, 1, 0, zeroCoord, .software,
        none, none, none, 0, 0⟩], [], 0⟩
    else ⟨ascii "mesh", [], [], 0⟩
  fabric := withCell coldFabric (ascii "agency.led.intent") (makeCoord 1 1 1)
  lock _ := true

def pulseRequest (fid : ℕ) : TaskRequest :=
  ⟨some 0, pulseTaskName (ledView.fields fid).name, 6144, fid, pulseBasePriority⟩

def pulseMachine : Machine :=
  (Machine.boot.create (pulseRequest 0) true).create (pulseRequest 1) true

def meshPolicy : KernelPolicy :=
  ⟨[], (holonAddField (some (ascii "mesh")) (some 1)
    (holonCreate (ascii "mesh") (some (ascii "mesh")) []).2).2, [], none⟩

def ledTurn : PolicyTurn := kernelPolicyTick emptyAtlas ledView meshPolicy

def ledGoverned : Governed :=
  ⟨Machine.start { pulseMachine with
    statics := applyRequests pulseMachine.statics ledTurn.requests }, ledTurn.policy⟩

def ledOps : List GovernedLabel :=
  [.act (.create (pulseRequest 0) true), .act (.create (pulseRequest 1) true),
    .holonCreate (ascii "mesh") (some (ascii "mesh")),
    .holonAddField (some (ascii "mesh")) (some 1)]

theorem ledGoverned_run : Run (Guarded NewName (GovernedStep emptyAtlas)) Governed.boot
    (ledOps ++ .tick ledView ledTurn :: [.act .start]) ledGoverned := by
  refine .cons ⟨?_, .act ⟨.inl rfl, rfl⟩ fun _ _ heq => by cases heq⟩ ?_
  · intro _ _ _ _ i _ halive
    exact absurd rfl halive.1
  refine .cons ⟨?_, .act ⟨.inl rfl, rfl⟩ fun _ _ heq => by cases heq⟩ ?_
  · intro _ _ heq _ i hi _
    cases heq
    have hother : ∀ i < schedMaxTasks,
        ((Machine.boot.create (pulseRequest 0) true).statics.tasks i).name ≠
          (pulseRequest 1).name.take (schedNameMax - 1) := by
      decide +kernel
    exact hother i hi
  refine .cons ⟨(fun _ _ heq => by cases heq), .holonCreate _ _⟩ ?_
  refine .cons ⟨(fun _ _ heq => by cases heq), .holonAddField _ _⟩ ?_
  refine .cons ⟨(fun _ _ heq => by cases heq), .tick ledView ⟨.inl rfl, rfl⟩⟩ ?_
  exact .single ⟨(fun _ _ heq => by cases heq), .act ⟨rfl, rfl⟩ fun _ _ heq => by cases heq⟩

end ReflexOS.Goose
