import ReflexOS.BootEntry
import ReflexOS.StorageBoots

set_option autoImplicit false

/-!
# Boots, crashes and safe mode

A board from one boot to the next. boot0 counts its attempts in a register that only a loss of
power, a stable system or a halt clears; `app_main` counts its starts in the store.
-/
namespace ReflexOS.Boot
open Kv Storage Runs

def bootLoopThreshold : ℤ := 10

/-- What `app_main` makes of the two settings: whether it is in safe mode, and what it writes. A
getter that fails leaves the variable as it was. -/
def lifecycle (S : Store) : Bool × List ConfigCall :=
  let stored := match configGetSafeMode S true with
    | .ok v => v
    | .error _ => false
  let bootCount := match configGetBootCount S true with
    | .ok v => v
    | .error _ => 0
  let safeMode := stored || decide (bootLoopThreshold ≤ bootCount)
  if safeMode then (true, [.bootCount 0, .safeMode false, .bootCount 1])
  else (false, [.bootCount (bootCount + 1)])

/-- Where a board is: on its way into boot0, stopped there, in the kernel before the settings are
read, with settings left to write, with nothing but a shell, or with all its tasks, the count
cleared or not and boot0 told or not. -/
inductive Phase where
  | reset
  | stopped
  | entered
  | starting (safeMode : Bool) (calls : List ConfigCall)
  | shellOnly
  | started
  | cleared
  | stable

def Phase.hasShell : Phase → Bool
  | .shellOnly | .started | .cleared | .stable => true
  | _ => false

def BootEnd.phase : BootEnd → Phase
  | .halted _ | .wedged => .stopped
  | .reset => .reset
  | .jumped _ => .entered

/-- The register, the store and the phase. -/
structure Device where
  store0 : ℕ
  store : Store
  phase : Phase

/-- A board that has never been on, with this flash. -/
def Device.new (F : NorFlash.Memory) : Device := ⟨0, kvInit F, .reset⟩

/-- A setter whose result nobody looks at. -/
def Device.set (D : Device) (call : ConfigCall) (phase : Phase) : Device :=
  { D with store := (call.run D.store).2, phase := phase }

/-- `app_main` up to the first write. -/
def Device.appMain (D : Device) : Device :=
  match storageInit D.store.flash with
  | (err, S) =>
    if err ≠ Err.ok then { D with store := S, phase := .shellOnly }
    else { D with store := S, phase := .starting (lifecycle S).1 (lifecycle S).2 }

inductive DeviceEvent where
  | boot (ending : BootEnd)
  | appMain
  | write (call : ConfigCall)
  | start
  | giveUp
  | clearCount
  | markStable
  | configure (call : ConfigCall)
  | restart
  | powerUp

/-- Whatever the flash reads give, a boot may end in any way; a board may crash or lose power
between any two steps. -/
inductive DeviceStep : Device → DeviceEvent → Device → Prop where
  | boot {D : Device} (rom : RomFlash) (sha : RomSha) (h : D.phase = .reset) :
      DeviceStep D (.boot (callStartCpu0 rom sha D.store0).1)
        ⟨(callStartCpu0 rom sha D.store0).2, D.store, (callStartCpu0 rom sha D.store0).1.phase⟩
  | appMain {D : Device} (h : D.phase = .entered) : DeviceStep D .appMain D.appMain
  | write {D : Device} {safeMode : Bool} {call : ConfigCall} {calls : List ConfigCall}
      (h : D.phase = .starting safeMode (call :: calls)) :
      DeviceStep D (.write call) (D.set call (.starting safeMode calls))
  | start {D : Device} {safeMode : Bool} (h : D.phase = .starting safeMode []) :
      DeviceStep D .start { D with phase := .started }
  | giveUp {D : Device} {safeMode : Bool} (h : D.phase = .starting safeMode []) :
      DeviceStep D .giveUp { D with phase := .shellOnly }
  | clearCount {D : Device} (h : D.phase = .started) :
      DeviceStep D .clearCount (D.set (.bootCount 0) .cleared)
  | markStable {D : Device} (h : D.phase = .cleared) :
      DeviceStep D .markStable { D with store0 := 0, phase := .stable }
  | configure {D : Device} {call : ConfigCall} (h : D.phase.hasShell = true)
      (htyped : call.Typed) : DeviceStep D (.configure call) (D.set call D.phase)
  | restart (D : Device) : DeviceStep D .restart { D with phase := .reset }
  | powerUp (D : Device) : DeviceStep D .powerUp { D with store0 := 0, phase := .reset }

section Attempts

/-- Attempts since the register was last cleared. -/
def countAttempt (n : ℕ) : DeviceEvent → ℕ
  | .boot (.halted .tooManyTimes) | .markStable | .powerUp => 0
  | .boot _ => n + 1
  | _ => n

def attempts (evs : List DeviceEvent) : ℕ := evs.foldl countAttempt 0

theorem countAttempt_boot {ending : BootEnd} (h : ending ≠ .halted .tooManyTimes) (n : ℕ) :
    countAttempt n (.boot ending) = n + 1 := by
  cases ending with
  | halted msg =>
    cases msg with
    | tooManyTimes => exact absurd rfl h
    | imageLoadFailed => rfl
  | reset | jumped _ | wedged => rfl

/-- The register holds the attempts, at most three. -/
def Attempted (D : Device) (n : ℕ) : Prop := getFailCount D.store0 = n ∧ n ≤ bootFailMax

theorem Attempted.step {D D' : Device} {n : ℕ} {ev : DeviceEvent} (h : Attempted D n)
    (hs : DeviceStep D ev D') : Attempted D' (countAttempt n ev) := by
  have hzero : getFailCount 0 = 0 ∧ 0 ≤ bootFailMax := by decide
  obtain ⟨hcount, hmax⟩ := h
  cases hs with
  | boot rom sha =>
    rcases callStartCpu0_cases rom sha D.store0 with ⟨-, hend⟩ | ⟨hlt, hend, hreg⟩
    · rw [hend]
      exact hzero
    · rw [countAttempt_boot hend]
      refine ⟨?_, hcount ▸ hlt⟩
      rw [hreg, getFailCount_set _ hlt, hcount]
  | markStable | powerUp => exact hzero
  | appMain =>
    refine ⟨?_, hmax⟩
    rw [Device.appMain]
    split
    split <;> exact hcount
  | write | start | giveUp | clearCount | configure | restart => exact ⟨hcount, hmax⟩

/-- In every run from power-up, through crashes and losses of power at any step and whatever the
flash holds: boot0 makes at most three attempts after the last loss of power, stable system or
halt, and refuses a boot just when it has made three. -/
theorem boot_refused_iff {D D' : Device} (hup : D.store0 = 0) {evs : List DeviceEvent}
    {ending : BootEnd} (hrun : Run DeviceStep D (evs ++ [.boot ending]) D') :
    attempts evs ≤ bootFailMax ∧
      (ending = .halted .tooManyTimes ↔ attempts evs = bootFailMax) := by
  obtain ⟨C, hrun, hlast⟩ := hrun.split
  have hstart : Attempted D 0 := ⟨by rw [hup]; rfl, Nat.zero_le _⟩
  have hatt : Attempted C (attempts evs) :=
    hrun.foldl countAttempt Attempted (fun _ _ _ _ h hs => h.step hs) hstart
  obtain ⟨hcount, hmax⟩ := hatt
  refine ⟨hmax, ?_⟩
  cases hlast with
  | cons hs _ =>
    cases hs with
    | boot rom sha =>
      rcases callStartCpu0_cases rom sha C.store0 with ⟨hge, hend⟩ | ⟨hlt, hend, -⟩
      · rw [hend]
        exact iff_of_true rfl (by omega)
      · exact iff_of_false hend (by omega)

/-- A flash that cannot be read. -/
def deadFlash : RomFlash := ⟨fun _ => 0xFF, fun _ => false, fun _ => 0⟩

theorem deadFlash_resets : callStartCpu0 deadFlash idleSha 0 = (.reset, setFailCount 1) ∧
    (∀ c < bootFailMax,
      callStartCpu0 deadFlash idleSha (setFailCount c) = (.reset, setFailCount (c + 1))) ∧
    callStartCpu0 deadFlash idleSha (setFailCount bootFailMax) = (.halted .tooManyTimes, 0) := by
  decide +kernel

theorem boot_refused_iff_dead :
    attempts [.boot .reset, .boot .reset, .boot .reset] = bootFailMax := by
  obtain ⟨hfirst, hagain, hlast⟩ := deadFlash_resets
  let D (store0 : ℕ) : Device := ⟨store0, kvInit blankFlash, .reset⟩
  have hboot (store0 : ℕ) := DeviceStep.boot (D := D store0) deadFlash idleSha rfl
  have hone : DeviceStep (D 0) (.boot .reset) (D (setFailCount 1)) := by
    have h := hboot 0
    rwa [show callStartCpu0 deadFlash idleSha (D 0).store0 = _ from hfirst] at h
  have hmore : ∀ c < bootFailMax,
      DeviceStep (D (setFailCount c)) (.boot .reset) (D (setFailCount (c + 1))) := fun c hc => by
    have h := hboot (setFailCount c)
    rwa [show callStartCpu0 deadFlash idleSha (D (setFailCount c)).store0 = _ from
      hagain c hc] at h
  have hend := hboot (setFailCount bootFailMax)
  rw [show callStartCpu0 deadFlash idleSha (D (setFailCount bootFailMax)).store0 = _ from
    hlast] at hend
  have hrun : Run DeviceStep (D 0)
      ([.boot .reset, .boot .reset, .boot .reset] ++ [.boot (.halted .tooManyTimes)]) _ :=
    .cons hone (.cons (hmore 1 (by decide)) (.cons (hmore 2 (by decide)) (.single hend)))
  exact (boot_refused_iff rfl hrun).2.mp rfl

end Attempts

section Starts

/-- The starts of `app_main` since the count was last cleared, and how often boot0 has had its
attempts back without a stable system: by a halt or a loss of power. -/
structure Tally where
  starts : ℕ
  refills : ℕ

def Tally.next (t : Tally) : DeviceEvent → Tally
  | .write (.bootCount v) => if v = 0 then ⟨0, 0⟩ else { t with starts := t.starts + 1 }
  | .clearCount => ⟨0, 0⟩
  | .boot (.halted .tooManyTimes) | .powerUp => { t with refills := t.refills + 1 }
  | _ => t

def tally (evs : List DeviceEvent) : Tally := evs.foldl Tally.next ⟨0, 0⟩

theorem Tally.next_boot {ending : BootEnd} (h : ending ≠ .halted .tooManyTimes) (t : Tally) :
    t.next (.boot ending) = t := by
  cases ending with
  | halted msg =>
    cases msg with
    | tooManyTimes => exact absurd rfl h
    | imageLoadFailed => rfl
  | reset | jumped _ | wedged => rfl

/-- Sequence numbers are left, and nobody sets the two settings by hand. -/
def Untouched (D : Device) (ev : DeviceEvent) : Prop :=
  D.store.activeSeq + 6 < 2 ^ 32 ∧ (∀ v, ev ≠ .configure (.bootCount v)) ∧
    ∀ v, ev ≠ .configure (.safeMode v)

/-- The store of a board that has been started, with `n` for the count. -/
def Counts (S : Store) (n : ℕ) : Prop :=
  ∃ c : Settings, Current ⟨S, c⟩ ∧ c.safeMode = false ∧ c.bootCount = n

/-- The writes left after `n` starts: at most a way back to zero, then one start more. -/
def Planned : ℕ → List ConfigCall → Prop
  | _, [] => True
  | n, .bootCount v :: calls =>
    (v = 0 ∧ calls ≠ [] ∧ Planned 0 calls) ∨ (v = n + 1 ∧ v ≤ bootLoopThreshold ∧ calls = [])
  | n, .safeMode v :: calls => v = false ∧ calls ≠ [] ∧ Planned n calls
  | _, _ => False

/-- A start that has been attempted and is not counted yet. -/
def Phase.due : Phase → ℕ
  | .entered | .starting _ (_ :: _) => 1
  | _ => 0

/-- What is so in a phase, with `c` in the register and `n` starts. -/
def Phase.Sound (c n : ℕ) : Phase → Prop
  | .entered => 1 ≤ c
  | .starting _ calls => 1 ≤ c ∧ Planned n calls
  | .cleared => n = 0
  | _ => True

/-- Before `app_main` has run for the first time. -/
def Phase.early : Phase → Bool
  | .reset | .stopped | .entered => true
  | _ => false

/-- Every start has used up an attempt, and attempts come in threes. -/
structure Accounted (D : Device) (t : Tally) : Prop where
  store : Counts D.store t.starts ∨
    D.phase.early = true ∧ Keeps D.store (fun _ => none) ∧ t.starts = 0
  starts : (t.starts : ℤ) ≤ bootLoopThreshold
  count : getFailCount D.store0 ≤ bootFailMax
  budget : t.starts + D.phase.due + (bootFailMax - getFailCount D.store0) ≤
    bootFailMax * (t.refills + 1)
  phase : D.phase.Sound (getFailCount D.store0) t.starts

section Settings

variable {S : Store} {n : ℕ}

theorem Counts.bootCount (h : Counts S n) : configGetBootCount S true = .ok (n : ℤ) := by
  obtain ⟨c, hc, -, hn⟩ := h
  rw [hc.returned.bootCount, hn]

theorem Counts.lifecycle (h : Counts S n) :
    lifecycle S = if bootLoopThreshold ≤ (n : ℤ) then
      (true, [.bootCount 0, .safeMode false, .bootCount 1]) else (false, [.bootCount (n + 1)]) := by
  have hcount := h.bootCount
  obtain ⟨c, hc, hmode, -⟩ := h
  simp only [Boot.lifecycle, hcount, hc.returned.safeMode, hmode, Bool.false_or, decide_eq_true_eq]

/-- A setter keeps the other settings, whatever it returns. -/
theorem Counts.set (h : Counts S n) (hseq : S.activeSeq + 6 < 2 ^ 32) {call : ConfigCall}
    (htyped : call.Typed) {m : ℕ}
    (hrecord : ∀ c : Settings, c.safeMode = false → c.bootCount = n →
      (call.record c).safeMode = false ∧ (call.record c).bootCount = m)
    (hshort : n ≠ m → call.write.2.2.length ≤ kvValMax) : Counts (call.run S).2 m := by
  obtain ⟨c, hc, hmode, hn⟩ := h
  by_cases hlen : call.write.2.2.length ≤ kvValMax
  · have hroom : call.write.2.2.length ≤ call.write.1.room := by
      cases call <;> first | exact hlen | exact le_refl _
    have hok := hc.keeps.run_ok call
      (Nat.lt_of_le_of_lt (Nat.add_le_add_left (by decide : 1 ≤ 6) S.activeSeq) hseq) hroom
    exact ⟨call.record c, (hc.set call htyped hok hseq).1, hrecord c hmode hn⟩
  · have hm : n = m := by_contra fun hne => hlen (hshort hne)
    have hsame : call.run S = (Err.invalidArg, S) := by
      rw [hc.keeps.run, kvWriteEntry, if_pos (.inr (Nat.lt_of_not_le hlen))]
    rw [hsame]
    exact ⟨c, hc, hmode, hm ▸ hn⟩

/-- A boot finds the count where it was, or a fresh store at zero. -/
theorem storageInit_counts (hseq : S.activeSeq + 6 < 2 ^ 32)
    (h : Counts S n ∨ Keeps S (fun _ => none) ∧ n = 0) :
    ∃ S', storageInit S.flash = (Err.ok, S') ∧ Counts S' n := by
  have hlevel : -2 ^ 31 ≤ defaultLogLevel ∧ defaultLogLevel < 2 ^ 31 := by decide
  have hzero : -2 ^ 31 ≤ defaultBootCount ∧ defaultBootCount < 2 ^ 31 := by decide
  rcases h with ⟨c, hc, hmode, hn⟩ | ⟨hkeeps, rfl⟩
  · obtain ⟨S', hS, hkeeps, -⟩ :=
      hc.keeps.restart.initDefaults (by rw [hc.keeps.restart_seq]; exact hseq)
    rw [bootValues_stored] at hkeeps
    exact ⟨S', hS, _, ⟨hkeeps, hc.logLevel, hc.bootCount⟩, hmode, hn⟩
  · obtain ⟨S', hS, hkeeps, -⟩ :=
      hkeeps.restart.initDefaults (by rw [hkeeps.restart_seq]; exact hseq)
    rw [bootValues_none] at hkeeps
    exact ⟨S', hS, .defaults, ⟨hkeeps, hlevel, hzero⟩, rfl, rfl⟩

end Settings

section Steps

variable {D D' : Device} {t : Tally}

theorem Accounted.counts (h : Accounted D t) (hphase : D.phase.early = false) :
    Counts D.store t.starts := by
  rcases h.store with hcounts | ⟨hearly, -⟩
  · exact hcounts
  · rw [hphase] at hearly
    cases hearly

theorem zero_le_threshold : ((0 : ℕ) : ℤ) ≤ bootLoopThreshold := by decide

theorem due_of_ne_nil {safeMode : Bool} {calls : List ConfigCall} (h : calls ≠ []) :
    (Phase.starting safeMode calls).due = 1 := by
  cases calls with
  | nil => exact absurd rfl h
  | cons => rfl

theorem Accounted.boot (h : Accounted D t) (hphase : D.phase = .reset) (rom : RomFlash)
    (sha : RomSha) :
    Accounted
      ⟨(callStartCpu0 rom sha D.store0).2, D.store, (callStartCpu0 rom sha D.store0).1.phase⟩
      (t.next (.boot (callStartCpu0 rom sha D.store0).1)) := by
  obtain ⟨hstore, hstarts, hcount, hbudget, -⟩ := h
  rw [hphase] at hstore hbudget
  have hearly : ∀ ending : BootEnd, ending.phase.early = true := fun ending => by
    cases ending <;> rfl
  rcases callStartCpu0_cases rom sha D.store0 with ⟨hge, hend⟩ | ⟨hlt, hend, hreg⟩
  · rw [hend]
    refine ⟨hstore.imp_right fun hs => ⟨rfl, hs.2⟩, hstarts, getFailCount_zero, ?_, trivial⟩
    change t.starts + 0 + (bootFailMax - getFailCount 0) ≤ bootFailMax * (t.refills + 1 + 1)
    simp only [bootFailMax] at hbudget ⊢
    omega
  · rw [t.next_boot hend, hreg]
    have hset := getFailCount_set _ (Nat.succ_le_of_lt hlt)
    refine ⟨hstore.imp_right fun hs => ⟨hearly _, hs.2⟩, hstarts, ?_, ?_, ?_⟩
    · exact hset.trans_le hlt
    · have hdue : (callStartCpu0 rom sha D.store0).1.phase.due ≤ 1 := by
        cases (callStartCpu0 rom sha D.store0).1 <;> simp [BootEnd.phase, Phase.due]
      change t.starts + 0 + _ ≤ _ at hbudget
      simp only [hset]
      omega
    · simp only [hset]
      cases (callStartCpu0 rom sha D.store0).1 with
      | jumped _ => exact Nat.le_add_left 1 _
      | halted _ | reset | wedged => trivial

theorem Accounted.appMain (h : Accounted D t) (hphase : D.phase = .entered)
    (hseq : D.store.activeSeq + 6 < 2 ^ 32) :
    Accounted D.appMain t ∧
      D.appMain.phase = .starting (decide (bootLoopThreshold ≤ (t.starts : ℤ)))
        (lifecycle D.appMain.store).2 ∧ Counts D.appMain.store t.starts := by
  obtain ⟨hstore, hstarts, hcount, hbudget, hsound⟩ := h
  rw [hphase] at hbudget hsound
  obtain ⟨S, hinit, hcounts⟩ := storageInit_counts hseq (hstore.imp_right fun hs => hs.2)
  have hmain : D.appMain = ⟨D.store0, S, .starting (lifecycle S).1 (lifecycle S).2⟩ := by
    rw [Device.appMain, hinit]
    rfl
  rw [hmain]
  by_cases hsafe : bootLoopThreshold ≤ (t.starts : ℤ)
  · have hlife := hcounts.lifecycle
    rw [if_pos hsafe] at hlife
    rw [hlife, decide_eq_true hsafe]
    exact ⟨⟨.inl hcounts, hstarts, hcount, hbudget, hsound, .inl ⟨rfl, by simp, rfl, by simp,
      .inr ⟨rfl, by decide, rfl⟩⟩⟩, rfl, hcounts⟩
  · have hlife := hcounts.lifecycle
    rw [if_neg hsafe] at hlife
    rw [hlife, decide_eq_false hsafe]
    exact ⟨⟨.inl hcounts, hstarts, hcount, hbudget, hsound, .inr ⟨rfl, by omega, rfl⟩⟩, rfl,
      hcounts⟩

theorem Accounted.write (h : Accounted D t) {safeMode : Bool} {call : ConfigCall}
    {calls : List ConfigCall} (hphase : D.phase = .starting safeMode (call :: calls))
    (hseq : D.store.activeSeq + 6 < 2 ^ 32) :
    Accounted (D.set call (.starting safeMode calls)) (t.next (.write call)) := by
  have hcounts := h.counts (by rw [hphase]; rfl)
  obtain ⟨-, hstarts, hcount, hbudget, hsound⟩ := h
  rw [hphase] at hbudget hsound
  obtain ⟨hattempt, hplan⟩ := hsound
  change t.starts + 1 + _ ≤ _ at hbudget
  cases call with
  | bootCount v =>
    rcases hplan with ⟨rfl, hmore, hplan⟩ | ⟨rfl, hle, rfl⟩
    · have hset : Counts ((ConfigCall.bootCount 0).run D.store).2 0 :=
        hcounts.set hseq (by simp [ConfigCall.Typed]) (fun _ hmode _ => ⟨hmode, rfl⟩)
          fun _ => (by decide : (le32 (u32 0)).length ≤ kvValMax)
      refine ⟨.inl hset, zero_le_threshold, hcount, ?_, hattempt, hplan⟩
      change 0 + (Phase.starting safeMode calls).due + (bootFailMax - getFailCount D.store0) ≤ _
      rw [due_of_ne_nil hmore]
      change 0 + 1 + (bootFailMax - getFailCount D.store0) ≤ bootFailMax
      omega
    · have htyped : (ConfigCall.bootCount (t.starts + 1)).Typed := by
        simp only [ConfigCall.Typed, bootLoopThreshold] at *
        omega
      have hset : Counts ((ConfigCall.bootCount (t.starts + 1)).run D.store).2 (t.starts + 1) :=
        hcounts.set hseq htyped (fun _ hmode _ => ⟨hmode, by simp [ConfigCall.record]⟩)
          fun _ => (by decide : 4 ≤ kvValMax)
      have hne : (t.starts : ℤ) + 1 ≠ 0 := by omega
      have hnext : t.next (.write (.bootCount (t.starts + 1))) = ⟨t.starts + 1, t.refills⟩ := by
        rw [Tally.next, if_neg hne]
      rw [hnext]
      refine ⟨.inl hset, ?_, hcount, ?_, hattempt, trivial⟩
      · rw [Nat.cast_succ]
        exact hle
      · change t.starts + 1 + 0 + _ ≤ _
        exact hbudget
  | safeMode v =>
    obtain ⟨rfl, hmore, hplan⟩ := hplan
    have hset : Counts ((ConfigCall.safeMode false).run D.store).2 t.starts :=
      hcounts.set hseq (by simp [ConfigCall.Typed]) (fun _ _ hn => ⟨rfl, hn⟩) fun hne => absurd rfl hne
    refine ⟨.inl hset, hstarts, hcount, ?_, hattempt, hplan⟩
    change t.starts + (Phase.starting safeMode calls).due + _ ≤ _
    rw [due_of_ne_nil hmore]
    exact hbudget
  | deviceName | logLevel | wifiSsid | wifiPassword => exact hplan.elim

theorem Accounted.configure (h : Accounted D t) (hshell : D.phase.hasShell = true)
    {call : ConfigCall} (htyped : call.Typed) (hu : Untouched D (.configure call)) :
    Accounted (D.set call D.phase) t := by
  obtain ⟨hseq, hcount, hmode⟩ := hu
  have hphase : D.phase.early = false := by
    cases hp : D.phase with
    | reset | stopped | entered =>
      rw [hp] at hshell
      cases hshell
    | starting | shellOnly | started | cleared | stable => rfl
  have hset : Counts (call.run D.store).2 t.starts := by
    apply (h.counts hphase).set hseq htyped
    · intro c hsafe hn
      cases call with
      | bootCount v => exact absurd rfl (hcount v)
      | safeMode v => exact absurd rfl (hmode v)
      | deviceName | logLevel | wifiSsid | wifiPassword => exact ⟨hsafe, hn⟩
    · exact fun hne => absurd rfl hne
  exact ⟨.inl hset, h.starts, h.count, h.budget, h.phase⟩

/-- Out of any phase, with the register as it was. -/
theorem Accounted.restart (h : Accounted D t) : Accounted { D with phase := .reset } t := by
  refine ⟨h.store.imp_right fun hs => ⟨rfl, hs.2⟩, h.starts, h.count, ?_, trivial⟩
  have hbudget := h.budget
  change t.starts + 0 + (bootFailMax - getFailCount D.store0) ≤ _
  omega

theorem Accounted.step {ev : DeviceEvent} (h : Accounted D t)
    (hs : Guarded Untouched DeviceStep D ev D') : Accounted D' (t.next ev) := by
  obtain ⟨hu, hs⟩ := hs
  cases hs with
  | boot rom sha hphase => exact h.boot hphase rom sha
  | appMain hphase => exact (h.appMain hphase hu.1).1
  | write hphase => exact h.write hphase hu.1
  | start hphase | giveUp hphase =>
    have hcounts := h.counts (by rw [hphase]; rfl)
    have hbudget := h.budget
    rw [hphase] at hbudget
    exact ⟨.inl hcounts, h.starts, h.count, hbudget, trivial⟩
  | clearCount hphase =>
    have hset : Counts ((ConfigCall.bootCount 0).run D.store).2 0 :=
      (h.counts (by rw [hphase]; rfl)).set hu.1 (by simp [ConfigCall.Typed])
        (fun _ hmode _ => ⟨hmode, rfl⟩) fun _ => (by decide : (le32 (u32 0)).length ≤ kvValMax)
    refine ⟨.inl hset, zero_le_threshold, h.count, ?_, rfl⟩
    change 0 + 0 + (bootFailMax - getFailCount D.store0) ≤ bootFailMax
    omega
  | markStable hphase =>
    have hcounts := h.counts (by rw [hphase]; rfl)
    have hzero : t.starts = 0 := by
      have hsound := h.phase
      rwa [hphase] at hsound
    refine ⟨.inl hcounts, h.starts, getFailCount_zero, ?_, trivial⟩
    change t.starts + 0 + (bootFailMax - getFailCount 0) ≤ bootFailMax * (t.refills + 1)
    simp only [bootFailMax]
    omega
  | configure hshell htyped => exact h.configure hshell htyped hu
  | restart => exact h.restart
  | powerUp =>
    have hbudget := h.budget
    refine ⟨h.store.imp_right fun hs => ⟨rfl, hs.2⟩, h.starts, getFailCount_zero, ?_, trivial⟩
    change t.starts + 0 + (bootFailMax - getFailCount 0) ≤ bootFailMax * (t.refills + 1 + 1)
    simp only [bootFailMax] at hbudget ⊢
    omega

end Steps

/-- On a board that starts with a blank store and whose two settings nobody sets by hand, in any
run: `app_main` finds the number of starts since the count was last cleared, never more than ten.
It finds ten, and goes through safe mode, only when boot0 has halted or power has been lost at
least three times since then. -/
theorem safe_mode_after_halts {F : NorFlash.Memory}
    (hblank : ∀ s < kvNumSectors, (readPageHeader F (sectorAddr s)).magic ≠ kvMagic)
    {evs : List DeviceEvent} {D : Device}
    (hrun : Run (Guarded Untouched DeviceStep) (.new F) (evs ++ [.appMain]) D) :
    configGetBootCount D.store true = .ok ((tally evs).starts : ℤ) ∧
      ((tally evs).starts : ℤ) ≤ bootLoopThreshold ∧
        ∀ calls, D.phase = .starting true calls → bootFailMax ≤ (tally evs).refills := by
  obtain ⟨C, hrun, hlast⟩ := hrun.split
  have hstart : Accounted (.new F) ⟨0, 0⟩ :=
    ⟨.inr ⟨rfl, keeps_fresh hblank, rfl⟩, zero_le_threshold, getFailCount_zero,
      (by decide : 0 + 0 + (bootFailMax - getFailCount 0) ≤ bootFailMax * (0 + 1)), trivial⟩
  have hacc : Accounted C (tally evs) :=
    hrun.foldl Tally.next Accounted (fun _ _ _ _ h hs => h.step hs) hstart
  cases hlast with
  | cons hs hnil =>
    cases hnil
    obtain ⟨hu, hs⟩ := hs
    cases hs with
    | appMain hphase =>
      obtain ⟨-, hsafe, hcounts⟩ := hacc.appMain hphase hu.1
      refine ⟨hcounts.bootCount, hacc.starts, fun calls hcalls => ?_⟩
      rw [hsafe, Phase.starting.injEq, decide_eq_true_eq] at hcalls
      have hbudget := hacc.budget
      have hmax := hacc.count
      rw [hphase] at hbudget
      change (tally evs).starts + 1 + (bootFailMax - getFailCount C.store0) ≤ _ at hbudget
      simp only [bootLoopThreshold, bootFailMax] at *
      omega

/-- A flash with a table of one partition and, in it, an image of no segments. -/
def emptyKernel : RomFlash where
  content a :=
    if partitionTableAddr ≤ a ∧ a < partitionTableAddr + 8 then
      [0xAA, 0x50, 0, 0, 0, 0, 1, 0].getD (a - partitionTableAddr) 0
    else if 0x10000 ≤ a then [0xE9, 0, 0, 0, 0, 0, 0x80, 0x40].getD (a - 0x10000) 0
    else 0xFF
  ok _ := true
  moved _ := 0

theorem emptyKernel_jumps :
    callStartCpu0 emptyKernel idleSha 0 = (.jumped 0x40800000, setFailCount 1) := by
  decide +kernel

theorem safe_mode_after_halts_first :
    configGetBootCount (Device.appMain ⟨setFailCount 1, kvInit blankFlash, .entered⟩).store true =
      .ok 0 := by
  have hblank : ∀ s < kvNumSectors, (readPageHeader blankFlash (sectorAddr s)).magic ≠ kvMagic :=
    fun s _ => blankFlash_magic s
  have hseq : (kvInit blankFlash).activeSeq + 6 < 2 ^ 32 := by
    rw [kvInit_seq hblank]
    decide
  have hboot := DeviceStep.boot (D := .new blankFlash) emptyKernel idleSha rfl
  rw [show callStartCpu0 emptyKernel idleSha (Device.new blankFlash).store0 = _ from
    emptyKernel_jumps] at hboot
  have hmain : DeviceStep ⟨setFailCount 1, kvInit blankFlash, .entered⟩ .appMain _ := .appMain rfl
  have huntouched : ∀ store0 phase, ∀ ev : DeviceEvent, (∀ call, ev ≠ .configure call) →
      Untouched ⟨store0, kvInit blankFlash, phase⟩ ev := fun _ _ _ hev =>
    ⟨hseq, fun _ => hev _, fun _ => hev _⟩
  have hrun : Run (Guarded Untouched DeviceStep) (.new blankFlash)
      ([.boot (.jumped 0x40800000)] ++ [.appMain]) _ :=
    .cons ⟨huntouched _ _ _ fun _ h => (by cases h), hboot⟩
      (.single ⟨huntouched _ _ _ fun _ h => (by cases h), hmain⟩)
  exact (safe_mode_after_halts hblank hrun).1

end Starts

end ReflexOS.Boot
