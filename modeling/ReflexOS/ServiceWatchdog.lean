import ReflexOS.Runs
import ReflexOS.Types
import Mathlib.Logic.Function.Basic

set_option autoImplicit false

/-!
# The service manager and its watchdog

Services are registered once; the watchdog restarts those that report a fault, each time after a
longer wait.
-/
namespace ReflexOS.Service
open Runs

def serviceMax : ℕ := 16
def watchdogBackoffInitMs : ℕ := 1000
def watchdogBackoffMaxMs : ℕ := 30000

inductive Status where
  | stopped
  | started
  | faulted
deriving DecidableEq

/-- The hooks that a descriptor has. -/
structure ServiceDesc where
  hasStart : Bool
  hasStop : Bool
  hasStatus : Bool

/-- What the watchdog keeps of a service. -/
structure Watch where
  restartBackoffMs : ℕ
  restartCount : ℕ
  nextRestartUs : ℕ
deriving DecidableEq

structure Manager where
  services : List ServiceDesc
  ready : Bool
  watch : ℕ → Watch

/-- A restart as it is logged, and its time; a service without the hook is not stopped first. -/
structure Restart where
  service : ℕ
  attempt : ℕ
  backoffMs : ℕ
  stopped : Bool
  us : ℕ
deriving DecidableEq

def serviceManagerInit : Manager := ⟨[], true, fun _ => ⟨0, 0, 0⟩⟩

/-- `service` is `none` for a null pointer; `init` is what the hook returns, if there is one. -/
def serviceRegister (M : Manager) (service : Option ServiceDesc) (init : Option Err) :
    Err × Manager :=
  if !M.ready then (.invalidState, M)
  else match service with
    | none => (.invalidArg, M)
    | some svc =>
      if M.services.length < serviceMax then
        (init.getD .ok, { M with services := M.services ++ [svc] })
      else (.noMem, M)

def nextBackoff (backoff : ℕ) : ℕ :=
  if backoff = 0 then watchdogBackoffInitMs
  else if backoff < watchdogBackoffMaxMs then backoff * 2 % 2 ^ 32
  else backoff

/-- The watchdog at one service. -/
def watchService (now i : ℕ) (svc : ServiceDesc) (st : Status) (w : Watch) :
    Watch × List Restart :=
  if !svc.hasStatus || !svc.hasStart then (w, [])
  else if st ≠ .faulted then
    if 0 < w.restartCount ∧ st = .started then
      ({ w with restartCount := 0, restartBackoffMs := 0 }, [])
    else (w, [])
  else if now < w.nextRestartUs then (w, [])
  else
    let backoff := nextBackoff w.restartBackoffMs
    (⟨backoff, (w.restartCount + 1) % 2 ^ 32, (now + backoff * 1000) % 2 ^ 64⟩,
      [⟨i, (w.restartCount + 1) % 2 ^ 32, backoff, svc.hasStop, now⟩])

/-- The loop over the first services. -/
def watchdogLoop (now : ℕ) (status : ℕ → Status) (M : Manager) : ℕ → Manager × List Restart
  | 0 => (M, [])
  | i + 1 =>
    let before := watchdogLoop now status M i
    match before.1.services[i]? with
    | none => before
    | some svc =>
      let got := watchService now i svc (status i) (before.1.watch i)
      ({ before.1 with watch := Function.update before.1.watch i got.1 }, before.2 ++ got.2)

def watchdogTick (now : ℕ) (status : ℕ → Status) (M : Manager) : Manager × List Restart :=
  if !M.ready then (M, []) else watchdogLoop now status M M.services.length

section Tick
variable {now i : ℕ} {status : ℕ → Status} {M : Manager} {st : Status} {w w' : Watch}
  {out : List Restart}

/-- The service can report a fault and be started again. -/
def Watched (M : Manager) (i : ℕ) : Prop :=
  ∃ svc, M.services[i]? = some svc ∧ svc.hasStatus = true ∧ svc.hasStart = true

/-- What the watchdog does at a place of the table. -/
inductive Watching (M : Manager) (now i : ℕ) (st : Status) (w : Watch) :
    Watch → List Restart → Prop where
  | unwatched (h : ¬ Watched M i) : Watching M now i st w w []
  | quiet (hs : st ≠ .faulted) (hk : st = .started → w.restartCount = 0) :
      Watching M now i st w w []
  | reset (hs : st = .started) (hk : 0 < w.restartCount) :
      Watching M now i st w ⟨0, 0, w.nextRestartUs⟩ []
  | early (hs : st = .faulted) (h : now < w.nextRestartUs) : Watching M now i st w w []
  | restart (stops : Bool) (hw : Watched M i) (hs : st = .faulted) (h : w.nextRestartUs ≤ now) :
      Watching M now i st w
        ⟨nextBackoff w.restartBackoffMs, (w.restartCount + 1) % 2 ^ 32,
          (now + nextBackoff w.restartBackoffMs * 1000) % 2 ^ 64⟩
        [⟨i, (w.restartCount + 1) % 2 ^ 32, nextBackoff w.restartBackoffMs, stops, now⟩]

/-- The watchdog at a place, with what it kept of it before the tick. -/
def watchPlace (now : ℕ) (status : ℕ → Status) (M : Manager) (i : ℕ) : Watch × List Restart :=
  match M.services[i]? with
  | none => (M.watch i, [])
  | some svc => watchService now i svc (status i) (M.watch i)

theorem watchService_cases {svc : ServiceDesc} (hsvc : M.services[i]? = some svc) :
    Watching M now i st w (watchService now i svc st w).1 (watchService now i svc st w).2 := by
  unfold watchService
  by_cases hhooks : (!svc.hasStatus || !svc.hasStart) = true
  · rw [if_pos hhooks]
    refine .unwatched ?_
    rintro ⟨svc', hsvc', hstatus, hstart⟩
    cases hsvc.symm.trans hsvc'
    rw [hstatus, hstart] at hhooks
    cases hhooks
  have hw : Watched M i := by
    refine ⟨svc, hsvc, ?_⟩
    cases hstatus : svc.hasStatus <;> cases hstart : svc.hasStart <;> simp_all
  rw [if_neg hhooks]
  by_cases hs : st = .faulted
  · rw [if_neg (not_not.mpr hs)]
    by_cases hnow : now < w.nextRestartUs
    · rw [if_pos hnow]
      exact .early hs hnow
    · rw [if_neg hnow]
      exact .restart _ hw hs (Nat.not_lt.mp hnow)
  · rw [if_pos hs]
    split
    next h => exact .reset h.2 h.1
    next h => exact .quiet hs fun hst => Nat.eq_zero_of_not_pos fun hk => h ⟨hk, hst⟩

theorem watchPlace_cases : Watching M now i (status i) (M.watch i)
    (watchPlace now status M i).1 (watchPlace now status M i).2 := by
  unfold watchPlace
  split
  next hnone =>
    refine .unwatched ?_
    rintro ⟨svc, hsvc, -⟩
    cases hnone.symm.trans hsvc
  next svc hsvc => exact watchService_cases hsvc

/-- The places do not get in each other's way. -/
theorem watchdogLoop_eq (n : ℕ) : watchdogLoop now status M n =
    ({ M with watch := fun i => if i < n then (watchPlace now status M i).1 else M.watch i },
      (List.range n).flatMap fun i => (watchPlace now status M i).2) := by
  induction n with
  | zero => rfl
  | succ n ih =>
    have hplace : Function.update
        (fun i => if i < n then (watchPlace now status M i).1 else M.watch i) n
          (watchPlace now status M n).1 =
        fun i => if i < n + 1 then (watchPlace now status M i).1 else M.watch i := by
      funext i
      by_cases hi : i = n
      · subst hi
        rw [Function.update_self, if_pos (Nat.lt_succ_self i)]
      · rw [Function.update_of_ne hi]
        simp only [show i < n + 1 ↔ i < n by omega]
    rw [watchdogLoop, ih, List.range_succ, List.flatMap_append, List.flatMap_singleton]
    dsimp only
    cases hsvc : M.services[n]? with
    | none =>
      have hn : watchPlace now status M n = (M.watch n, []) := by rw [watchPlace, hsvc]
      rw [hn] at hplace ⊢
      rw [List.append_nil, ← hplace, Function.update_eq_self_iff.mpr]
      rw [if_neg (Nat.lt_irrefl n)]
    | some svc =>
      have hn : watchPlace now status M n = watchService now n svc (status n) (M.watch n) := by
        rw [watchPlace, hsvc]
      dsimp only
      rw [if_neg (Nat.lt_irrefl n), ← hn, hplace]

theorem watchdogTick_eq (h : M.ready = true) : watchdogTick now status M =
    ({ M with watch := fun i => (watchPlace now status M i).1 },
      (List.range M.services.length).flatMap fun i => (watchPlace now status M i).2) := by
  have hwatch : (fun i => if i < M.services.length then (watchPlace now status M i).1
      else M.watch i) = fun i => (watchPlace now status M i).1 := by
    funext i
    by_cases hi : i < M.services.length
    · rw [if_pos hi]
    · rw [if_neg hi, watchPlace, List.getElem?_eq_none (Nat.le_of_not_lt hi)]
  rw [watchdogTick, if_neg (by simp [h]), watchdogLoop_eq, hwatch]

end Tick

end ReflexOS.Service
