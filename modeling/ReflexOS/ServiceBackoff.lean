import ReflexOS.ServiceWatchdog

set_option autoImplicit false

/-!
# How long a faulted service waits

The wait doubles with each restart that follows a fault on a fault. It is tested against its cap
before it is doubled, so that the sixth restart in a row takes it past.
-/
namespace ReflexOS.Service
open Runs

inductive ServiceOp where
  | register (service : Option ServiceDesc) (init : Option Err)
  | tick (now : ℕ) (status : ℕ → Status)

/-- The label of a step is the operation with the restarts that it makes. -/
abbrev Event := ServiceOp × List Restart

inductive ServiceStep : Manager → Event → Manager → Prop where
  | register (M : Manager) (service : Option ServiceDesc) (init : Option Err) :
      ServiceStep M (.register service init, []) (serviceRegister M service init).2
  | tick (M : Manager) (now : ℕ) (status : ℕ → Status) :
      ServiceStep M (.tick now status, (watchdogTick now status M).2) (watchdogTick now status M).1

def restarts (events : List Event) : List Restart := events.flatMap Prod.snd

/-- The restarts of a service in a row: a report that it has started ends them. -/
def countRow (i : ℕ) (k : ℕ) (e : Event) : ℕ :=
  match e.1 with
  | .register _ _ => k
  | .tick _ status =>
    if status i = .started then 0 else if ∃ r ∈ e.2, r.service = i then k + 1 else k

def inARow (i : ℕ) (events : List Event) : ℕ := events.foldl (countRow i) 0

/-- The wait after `k` restarts in a row. -/
def backoffAfter (k : ℕ) : ℕ := min (watchdogBackoffInitMs * 2 ^ (k - 1)) watchdogBackoffMaxMs

/-- A restart does not come before the wait that the one before it set has passed. -/
def Spaced (events : List Event) : Prop := (restarts events).Pairwise fun r r' =>
  r.service = r'.service → r.us + 1000 * r.backoffMs ≤ r'.us

/-- Only services that report a fault are restarted. -/
def OnlyFaulted (events : List Event) : Prop := ∀ now status out, (.tick now status, out) ∈ events →
  ∀ r ∈ out, status r.service = .faulted

/-- What the watchdog is for. -/
structure BackoffLaw (events : List Event) (M : Manager) : Prop where
  capped : ∀ i, (M.watch i).restartBackoffMs ≤ watchdogBackoffMaxMs
  spaced : Spaced events
  faulted : OnlyFaulted events
  doubled : ∀ i, 0 < inARow i events →
    (M.watch i).restartBackoffMs = backoffAfter (inARow i events)

/-- No restart is due after a wait that doubling takes past the cap, and none so late that the end
of its wait does not fit the clock. -/
def InTime (M : Manager) : Event → Prop
  | (.register _ _, _) => True
  | (.tick now status, _) => ∀ i, Watched M i → status i = .faulted →
      (M.watch i).nextRestartUs ≤ now → (M.watch i).restartBackoffMs ≠ 16000 ∧
        now + 1000 * max watchdogBackoffInitMs (2 * (M.watch i).restartBackoffMs) < 2 ^ 64

section Place
variable {now i : ℕ} {status : ℕ → Status} {M : Manager} {r : Restart}

/-- Restarts are of the place that makes them, of a fault that was due. -/
theorem watchPlace_restart (hr : r ∈ (watchPlace now status M i).2) :
    r.service = i ∧ r.us = now ∧ Watched M i ∧ status i = .faulted ∧
      (M.watch i).nextRestartUs ≤ now := by
  have hcases := @watchPlace_cases now i status M
  revert hr hcases
  generalize watchPlace now status M i = got
  obtain ⟨w', out⟩ := got
  intro hr hcases
  cases hcases with
  | unwatched | quiet | reset | early => cases hr
  | restart stops hw hs h =>
    cases List.mem_singleton.mp hr
    exact ⟨rfl, rfl, hw, hs, h⟩

theorem mem_watchdogTick (h : M.ready = true) :
    r ∈ (watchdogTick now status M).2 ↔ r ∈ (watchPlace now status M r.service).2 := by
  rw [watchdogTick_eq h, List.mem_flatMap]
  constructor
  · rintro ⟨i, -, hr⟩
    exact (watchPlace_restart hr).1 ▸ hr
  · intro hr
    obtain ⟨-, -, ⟨svc, hsvc, -⟩, -⟩ := watchPlace_restart hr
    exact ⟨r.service, List.mem_range.mpr (List.getElem?_eq_some_iff.mp hsvc).1, hr⟩

theorem watchdogTick_once (h : M.ready = true) :
    (watchdogTick now status M).2.Pairwise fun r r' => r.service ≠ r'.service := by
  rw [watchdogTick_eq h, List.pairwise_flatMap]
  constructor
  · intro i _
    have hcases := @watchPlace_cases now i status M
    generalize watchPlace now status M i = got at hcases
    obtain ⟨w', out⟩ := got
    cases hcases with
    | unwatched | quiet | reset | early => exact .nil
    | restart => exact List.pairwise_singleton _ _
  · refine List.pairwise_lt_range.imp fun {i j} hij r hr r' hr' => ?_
    rw [(watchPlace_restart hr).1, (watchPlace_restart hr').1]
    exact Nat.ne_of_lt hij

end Place

/-- The wait while nothing is past the cap. -/
def waitAfter : ℕ → ℕ
  | 0 => 0
  | k + 1 => watchdogBackoffInitMs * 2 ^ k

/-- What the manager keeps of a service is what its reports have come to. -/
structure Paced (events : List Event) (M : Manager) : Prop where
  ready : M.ready = true
  idle : ∀ i, ¬ Watched M i → inARow i events = 0
  short : ∀ i, inARow i events ≤ 5
  count : ∀ i, (M.watch i).restartCount = inARow i events
  wait : ∀ i, (M.watch i).restartBackoffMs = waitAfter (inARow i events)
  due : ∀ r ∈ restarts events, r.us + 1000 * r.backoffMs ≤ (M.watch r.service).nextRestartUs

theorem Paced.init : Paced [] serviceManagerInit where
  ready := rfl
  idle _ _ := rfl
  short _ := Nat.zero_le 5
  count _ := rfl
  wait _ := rfl
  due _ hr := by cases hr

/-- One more restart in a row doubles the wait, and stays below the cap. -/
theorem nextBackoff_wait {k : ℕ} (hk : k ≤ 5) (hwait : waitAfter k ≠ 16000) :
    k < 5 ∧ nextBackoff (waitAfter k) = waitAfter (k + 1) ∧
      waitAfter (k + 1) ≤ max watchdogBackoffInitMs (2 * waitAfter k) := by
  have hall : ∀ k ≤ 5, waitAfter k ≠ 16000 → k < 5 ∧
      nextBackoff (waitAfter k) = waitAfter (k + 1) ∧
        waitAfter (k + 1) ≤ max watchdogBackoffInitMs (2 * waitAfter k) := by
    decide
  exact hall k hk hwait

theorem inARow_snoc (i : ℕ) (events : List Event) (e : Event) :
    inARow i (events ++ [e]) = countRow i (inARow i events) e := List.foldl_append

theorem restarts_snoc (events : List Event) (e : Event) :
    restarts (events ++ [e]) = restarts events ++ e.2 := by
  rw [restarts, List.flatMap_append, List.flatMap_singleton]
  rfl

section Step
variable {now : ℕ} {status : ℕ → Status} {M : Manager} {events : List Event} (h : Paced events M)
  (hin : InTime M (.tick now status, (watchdogTick now status M).2))
include h

theorem Paced.restarted_iff (i : ℕ) : (∃ r ∈ (watchdogTick now status M).2, r.service = i) ↔
    (watchPlace now status M i).2 ≠ [] := by
  constructor
  · rintro ⟨r, hr, rfl⟩
    exact List.ne_nil_of_mem ((mem_watchdogTick h.ready).mp hr)
  · intro hne
    obtain ⟨r, hr⟩ := List.exists_mem_of_ne_nil _ hne
    have hi := (watchPlace_restart hr).1
    exact ⟨r, (mem_watchdogTick h.ready).mpr (hi.symm ▸ hr), hi⟩

include hin

theorem Paced.place (i : ℕ) :
    let k := countRow i (inARow i events) (.tick now status, (watchdogTick now status M).2)
    let w := (watchPlace now status M i).1
    (¬ Watched M i → k = 0) ∧ k ≤ 5 ∧ w.restartCount = k ∧ w.restartBackoffMs = waitAfter k ∧
      (M.watch i).nextRestartUs ≤ w.nextRestartUs ∧
      ∀ r ∈ (watchPlace now status M i).2, r.us + 1000 * r.backoffMs ≤ w.nextRestartUs := by
  have hcases := @watchPlace_cases now i status M
  have hcount := h.count i
  have hshort := h.short i
  have hwait := h.wait i
  simp only [countRow, h.restarted_iff]
  generalize watchPlace now status M i = got at hcases
  obtain ⟨w, out⟩ := got
  dsimp only at hcases ⊢
  cases hcases with
  | unwatched hw =>
    have hidle := h.idle i hw
    rw [hidle] at hcount hwait
    simp [hidle, hcount, hwait]
  | quiet hs hk =>
    by_cases hst : status i = .started
    · rw [hk hst] at hcount
      rw [← hcount] at hwait
      simp [hst, hk hst, hwait]
    · simpa [hst, hcount, hwait, hshort] using h.idle i
  | reset hs hk => simp [hs, waitAfter]
  | early hs hearly =>
    simpa [hs, hcount, hwait, hshort] using h.idle i
  | restart stops hw hs hdue =>
    obtain ⟨hneq, hfits⟩ := hin i hw hs hdue
    rw [hwait] at hneq hfits
    obtain ⟨hlt, hnext, hle⟩ := nextBackoff_wait hshort hneq
    have hclock : now + waitAfter (inARow i events + 1) * 1000 < 2 ^ 64 := by omega
    rw [hwait, hnext, hcount, Nat.mod_eq_of_lt hclock, Nat.mod_eq_of_lt (by omega)]
    simp only [hs, reduceCtorEq, if_false, ne_eq, List.cons_ne_nil, not_false_eq_true, if_true,
      List.mem_singleton, forall_eq]
    refine ⟨fun hnot => absurd hw hnot, hlt, trivial, trivial, by omega, by omega⟩

theorem Paced.tick : Paced (events ++ [(.tick now status, (watchdogTick now status M).2)])
    (watchdogTick now status M).1 := by
  have hwatched : ∀ i, Watched (watchdogTick now status M).1 i ↔ Watched M i := by
    intro i
    rw [watchdogTick_eq h.ready]
    exact Iff.rfl
  have hwatch : (watchdogTick now status M).1.watch =
      fun i => (watchPlace now status M i).1 := by
    rw [watchdogTick_eq h.ready]
  constructor
  · rw [watchdogTick_eq h.ready]
    exact h.ready
  · intro i hi
    rw [inARow_snoc]
    exact (h.place hin i).1 ((hwatched i).not.mp hi)
  · intro i
    rw [inARow_snoc]
    exact (h.place hin i).2.1
  · intro i
    rw [inARow_snoc, hwatch]
    exact (h.place hin i).2.2.1
  · intro i
    rw [inARow_snoc, hwatch]
    exact (h.place hin i).2.2.2.1
  · intro r hr
    rw [restarts_snoc, List.mem_append] at hr
    rw [hwatch]
    obtain ⟨-, -, -, -, hnext, hout⟩ := h.place hin r.service
    rcases hr with hold | hnew
    · exact Nat.le_trans (h.due r hold) hnext
    · exact hout r ((mem_watchdogTick h.ready).mp hnew)

omit hin in
theorem Paced.spaced_tick (hs : Spaced events) :
    Spaced (events ++ [(.tick now status, (watchdogTick now status M).2)]) := by
  rw [Spaced, restarts_snoc, List.pairwise_append]
  refine ⟨hs, (watchdogTick_once h.ready).imp fun hne heq => absurd heq hne, ?_⟩
  intro r hr r' hr' heq
  obtain ⟨-, hus, -, -, hdue⟩ := watchPlace_restart ((mem_watchdogTick h.ready).mp hr')
  have hbefore := h.due r hr
  rw [heq] at hbefore
  omega

omit hin in
theorem Paced.faulted_tick (hf : OnlyFaulted events) :
    OnlyFaulted (events ++ [(.tick now status, (watchdogTick now status M).2)]) := by
  intro now' status' out hmem r hr
  rcases List.mem_append.mp hmem with hold | hnew
  · exact hf now' status' out hold r hr
  · cases List.mem_singleton.mp hnew
    exact (watchPlace_restart ((mem_watchdogTick h.ready).mp hr)).2.2.2.1

end Step

section Register
variable {M : Manager} {events : List Event} {service : Option ServiceDesc} {init : Option Err}

theorem serviceRegister_keeps : (serviceRegister M service init).2.ready = M.ready ∧
    (serviceRegister M service init).2.watch = M.watch ∧
    ∀ i, Watched M i → Watched (serviceRegister M service init).2 i := by
  unfold serviceRegister
  split
  · exact ⟨rfl, rfl, fun _ => id⟩
  cases service with
  | none => exact ⟨rfl, rfl, fun _ => id⟩
  | some svc =>
    dsimp only
    split
    · refine ⟨rfl, rfl, fun i hi => ?_⟩
      obtain ⟨svc', hsvc, hhooks⟩ := hi
      have hlt := (List.getElem?_eq_some_iff.mp hsvc).1
      exact ⟨svc', (List.getElem?_append_left hlt).trans hsvc, hhooks⟩
    · exact ⟨rfl, rfl, fun _ => id⟩

theorem Paced.register (h : Paced events M) :
    Paced (events ++ [(.register service init, [])]) (serviceRegister M service init).2 := by
  obtain ⟨hready, hwatch, hwatched⟩ := @serviceRegister_keeps M service init
  constructor
  · exact hready.trans h.ready
  · intro i hi
    rw [inARow_snoc]
    exact h.idle i fun hw => hi (hwatched i hw)
  · intro i
    rw [inARow_snoc]
    exact h.short i
  · intro i
    rw [inARow_snoc, hwatch]
    exact h.count i
  · intro i
    rw [inARow_snoc, hwatch]
    exact h.wait i
  · intro r hr
    rw [restarts_snoc, List.append_nil] at hr
    rw [hwatch]
    exact h.due r hr

end Register

/-- Whatever the run, its restarts keep their distance and answer faults. -/
theorem run_paced {M M' : Manager} {events ops : List Event}
    (hrun : Run (Guarded InTime ServiceStep) M ops M') (h : Paced events M) (hs : Spaced events)
    (hf : OnlyFaulted events) :
    Paced (events ++ ops) M' ∧ Spaced (events ++ ops) ∧ OnlyFaulted (events ++ ops) := by
  induction hrun generalizing events with
  | nil M =>
    rw [List.append_nil]
    exact ⟨h, hs, hf⟩
  | @cons M M₁ M' e ops hstep hrest ih =>
    obtain ⟨hin, hstep⟩ := hstep
    have hsnoc : events ++ e :: ops = (events ++ [e]) ++ ops := by simp
    rw [hsnoc]
    cases hstep with
    | register service init =>
      refine ih h.register ?_ ?_
      · rw [Spaced, restarts_snoc, List.append_nil]
        exact hs
      · intro now status out hmem
        rcases List.mem_append.mp hmem with hold | hnew
        · exact hf now status out hold
        · cases List.mem_singleton.mp hnew
    | tick now status => exact ih (h.tick hin) (h.spaced_tick hs) (h.faulted_tick hf)

theorem waitAfter_law {k : ℕ} (hk : k ≤ 5) :
    waitAfter k ≤ watchdogBackoffMaxMs ∧ (0 < k → waitAfter k = backoffAfter k) := by
  have hall : ∀ k ≤ 5, waitAfter k ≤ watchdogBackoffMaxMs ∧
      (0 < k → waitAfter k = backoffAfter k) := by
    decide
  exact hall k hk

/-- The law holds as long as every tick comes in time. -/
theorem watchdog_paced {M : Manager} {events : List Event}
    (h : Run (Guarded InTime ServiceStep) serviceManagerInit events M) : BackoffLaw events M := by
  obtain ⟨hpaced, hspaced, hfaulted⟩ := run_paced h .init .nil nofun
  rw [List.nil_append] at hpaced hspaced hfaulted
  refine ⟨fun i => ?_, hspaced, hfaulted, fun i hi => ?_⟩
  · rw [hpaced.wait]
    exact (waitAfter_law (hpaced.short i)).1
  · rw [hpaced.wait]
    exact (waitAfter_law (hpaced.short i)).2 hi

section Fixed

def plainService : ServiceDesc := ⟨true, true, true⟩

/-- One service, registered, that reports a fault at each of the times. -/
def faultyManager : List ℕ → Manager
  | [] => (serviceRegister serviceManagerInit (some plainService) none).2
  | now :: earlier => (watchdogTick now (fun _ => .faulted) (faultyManager earlier)).1

/-- The events of it, the last time first. -/
def faultyEvents : List ℕ → List Event
  | [] => [(.register (some plainService) none, [])]
  | now :: earlier => faultyEvents earlier ++
    [(.tick now fun _ => .faulted,
      (watchdogTick now (fun _ => .faulted) (faultyManager earlier)).2)]

theorem faulty_run (times : List ℕ) :
    Run ServiceStep serviceManagerInit (faultyEvents times) (faultyManager times) := by
  induction times with
  | nil => exact .single (.register _ _ _)
  | cons now earlier ih => exact ih.append (.single (.tick _ _ _))

/-- At the sixth restart in a row sixteen seconds become thirty-two. -/
theorem watchdog_overshoots : ¬ ∀ (events : List Event) (M : Manager),
    Run ServiceStep serviceManagerInit events M → BackoffLaw events M := by
  intro hall
  have hlaw := hall _ _ (faulty_run [31000000, 15000000, 7000000, 3000000, 1000000, 0])
  have hwait : ((faultyManager [31000000, 15000000, 7000000, 3000000, 1000000, 0]).watch
      0).restartBackoffMs = 32000 := by decide +kernel
  exact absurd (hlaw.capped 0) (by rw [hwait]; decide)

/-- Two restarts in a row. -/
theorem watchdog_paced_twice :
    BackoffLaw (faultyEvents [1000000, 0]) (faultyManager [1000000, 0]) := by
  have honly : ∀ {M : Manager} {i : ℕ}, M.services.length = 1 → Watched M i → i = 0 := by
    rintro M i hlen ⟨svc, hsvc, -⟩
    have hlt := (List.getElem?_eq_some_iff.mp hsvc).1
    omega
  refine watchdog_paced (.cons ⟨trivial, .register _ _ _⟩ (.cons ⟨?_, .tick _ _ _⟩
    (.cons ⟨?_, .tick _ _ _⟩ (.nil _))))
  · intro i hw _ _
    cases honly (by decide) hw
    decide +kernel
  · intro i hw _ _
    cases honly (by decide +kernel) hw
    decide +kernel

end Fixed

end ReflexOS.Service
