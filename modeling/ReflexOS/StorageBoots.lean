import ReflexOS.StorageConfig

set_option autoImplicit false

/-!
# Settings across boots

The settings as the callers of the setters see them, and what the store keeps of them.
-/
namespace ReflexOS.Storage
open Kv NorFlash Runs

structure Settings where
  deviceName : CName
  logLevel : ℤ
  wifiSsid : CName
  wifiPassword : CName
  safeMode : Bool
  bootCount : ℤ

def Settings.defaults : Settings :=
  ⟨defaultDeviceName, defaultLogLevel, defaultWifiSsid, defaultWifiPassword, false,
    defaultBootCount⟩

/-- How the store keeps the settings. -/
def Settings.stored (c : Settings) : Values
  | .deviceName => some (c.deviceName ++ [0])
  | .logLevel => some (le32 (u32 c.logLevel))
  | .wifiSsid => some (c.wifiSsid ++ [0])
  | .wifiPassword => some (c.wifiPassword ++ [0])
  | .safeMode => some [UInt8.ofNat (if c.safeMode then 1 else 0)]
  | .bootCount => some (le32 (u32 c.bootCount))

/-- The strings are as the defaults pass writes them. -/
def Settings.StringsDefault (c : Settings) : Prop :=
  c.deviceName = defaultDeviceName ∧ c.wifiSsid = defaultWifiSsid ∧
    c.wifiPassword = defaultWifiPassword

theorem bootValues_none : bootValues (fun _ => none) = Settings.defaults.stored := by
  funext s
  cases s <;> rfl

theorem bootValues_stored (c : Settings) :
    bootValues c.stored = { c with
      deviceName := defaultDeviceName
      wifiSsid := defaultWifiSsid
      wifiPassword := defaultWifiPassword }.stored := by
  funext s
  cases s <;> rfl

theorem bootValues_default {c : Settings} (h : c.StringsDefault) :
    bootValues c.stored = c.stored := by
  obtain ⟨hname, hssid, hpassword⟩ := h
  rw [bootValues_stored, ← hname, ← hssid, ← hpassword]

inductive ConfigCall where
  | deviceName (value : CName)
  | logLevel (value : ℤ)
  | wifiSsid (value : CName)
  | wifiPassword (value : CName)
  | safeMode (value : Bool)
  | bootCount (value : ℤ)

namespace ConfigCall

def run (S : Store) : ConfigCall → Err × Store
  | deviceName value => configSetDeviceName S value
  | logLevel value => configSetLogLevel S value
  | wifiSsid value => configSetWifiSsid S value
  | wifiPassword value => configSetWifiPassword S value
  | safeMode value => configSetSafeMode S value
  | bootCount value => configSetBootCount S value

def record (c : Settings) : ConfigCall → Settings
  | deviceName value => { c with deviceName := value }
  | logLevel value => { c with logLevel := value }
  | wifiSsid value => { c with wifiSsid := value }
  | wifiPassword value => { c with wifiPassword := value }
  | safeMode value => { c with safeMode := value }
  | bootCount value => { c with bootCount := value }

/-- The numbers are of type `int32_t`. -/
def Typed : ConfigCall → Prop
  | logLevel value | bootCount value => -2 ^ 31 ≤ value ∧ value < 2 ^ 31
  | _ => True

/-- The setting a call writes, with the type and the bytes of the entry. -/
def write : ConfigCall → Setting × UInt8 × List UInt8
  | deviceName value => (.deviceName, kvTypeStr, value ++ [0])
  | logLevel value => (.logLevel, kvTypeI32, le32 (u32 value))
  | wifiSsid value => (.wifiSsid, kvTypeStr, value ++ [0])
  | wifiPassword value => (.wifiPassword, kvTypeStr, value ++ [0])
  | safeMode value => (.safeMode, kvTypeU8, [UInt8.ofNat (if value then 1 else 0)])
  | bootCount value => (.bootCount, kvTypeI32, le32 (u32 value))

theorem stored_record (c : Settings) (call : ConfigCall) :
    (call.record c).stored = Function.update c.stored call.write.1 (some call.write.2.2) := by
  funext s
  cases call <;> cases s <;> rfl

end ConfigCall

/-- The store, and the last value set for each setting. -/
structure Configured where
  store : Store
  settings : Settings

/-- The system at the end of its first boot. -/
def Configured.first (F : Memory) : Configured := ⟨(storageInit F).2, Settings.defaults⟩

def Configured.set (C : Configured) (call : ConfigCall) : Configured :=
  ⟨(call.run C.store).2, call.record C.settings⟩

def Configured.reboot (C : Configured) : Configured :=
  ⟨(storageInit C.store.flash).2, C.settings⟩

inductive ConfigEvent where
  | set (call : ConfigCall)
  | reboot

inductive ConfigStep : Configured → ConfigEvent → Configured → Prop where
  | set {C : Configured} {call : ConfigCall} (htyped : call.Typed)
      (hok : (call.run C.store).1 = Err.ok) :
      ConfigStep C (.set call) (C.set call)
  | reboot (C : Configured) : ConfigStep C .reboot C.reboot

/-- Sequence numbers are left for the writes of the step, and a boot finds the strings as the
defaults pass writes them. -/
def Unharmed (C : Configured) (ev : ConfigEvent) : Prop :=
  C.store.activeSeq + 6 < 2 ^ 32 ∧ (ev = .reboot → C.settings.StringsDefault)

/-- The store keeps the settings, the numbers in range. -/
structure Current (C : Configured) : Prop where
  keeps : Keeps C.store C.settings.stored
  logLevel : -2 ^ 31 ≤ C.settings.logLevel ∧ C.settings.logLevel < 2 ^ 31
  bootCount : -2 ^ 31 ≤ C.settings.bootCount ∧ C.settings.bootCount < 2 ^ 31

section Current

variable {C : Configured}

theorem Keeps.run {S : Store} {cfg : Values} (h : Keeps S cfg) (call : ConfigCall) :
    call.run S = kvWriteEntry S (nsHash configNamespace) call.write.1.key call.write.2.1
      call.write.2.2 := by
  cases call <;>
    simp only [ConfigCall.run, configSetDeviceName, configSetLogLevel, configSetWifiSsid,
      configSetWifiPassword, configSetSafeMode, configSetBootCount, configSet, h.open] <;> rfl

/-- A value a setter accepts is one its getter has room for. -/
theorem length_of_ok {S : Store} {cfg : Values} (h : Keeps S cfg) {call : ConfigCall}
    (hok : (call.run S).1 = Err.ok) : call.write.2.2.length ≤ call.write.1.room := by
  have hval : call.write.2.2.length ≤ kvValMax := by
    by_contra hlong
    rw [h.run, kvWriteEntry, if_pos (.inr (Nat.lt_of_not_le hlong))] at hok
    exact absurd hok (by decide : Err.invalidArg ≠ Err.ok)
  cases call <;> first | exact hval | exact le_refl _

theorem Keeps.run_ok {S : Store} {cfg : Values} (h : Keeps S cfg) (call : ConfigCall)
    (hseq : S.activeSeq + 1 < 2 ^ 32) (hlen : call.write.2.2.length ≤ call.write.1.room) :
    (call.run S).1 = Err.ok := by
  obtain ⟨S', hS, -⟩ := h.write call.write.2.1 hseq hlen
  rw [h.run, hS]

theorem Current.set (h : Current C) (call : ConfigCall) (htyped : call.Typed)
    (hok : (call.run C.store).1 = Err.ok) (hseq : C.store.activeSeq + 6 < 2 ^ 32) :
    Current (C.set call) ∧ (C.set call).store.activeSeq ≤ C.store.activeSeq + 1 := by
  obtain ⟨S', hS, hkeeps, hseq'⟩ :=
    h.keeps.write call.write.2.1 (by omega) (length_of_ok h.keeps hok)
  rw [← h.keeps.run] at hS
  rw [← call.stored_record] at hkeeps
  rw [Configured.set, hS]
  refine ⟨⟨hkeeps, ?_, ?_⟩, hseq'⟩
  · cases call <;> first | exact htyped | exact h.logLevel
  · cases call <;> first | exact htyped | exact h.bootCount

theorem Current.reboot (h : Current C) (hseq : C.store.activeSeq + 6 < 2 ^ 32) :
    Keeps C.reboot.store (bootValues C.settings.stored) := by
  obtain ⟨S', hS, hkeeps, -⟩ :=
    h.keeps.restart.initDefaults (by rw [h.keeps.restart_seq]; exact hseq)
  rw [Configured.reboot, storageInit, hS]
  exact hkeeps

theorem Current.step {C' : Configured} {ev : ConfigEvent} (h : Current C)
    (hs : Guarded Unharmed ConfigStep C ev C') : Current C' := by
  obtain ⟨⟨hseq, hstrings⟩, hs⟩ := hs
  cases hs with
  | set htyped hok => exact (h.set _ htyped hok hseq).1
  | reboot =>
    have hkeeps := h.reboot hseq
    rw [bootValues_default (hstrings rfl)] at hkeeps
    exact ⟨hkeeps, h.logLevel, h.bootCount⟩

theorem current_first {F : Memory}
    (h : ∀ t < kvNumSectors, (readPageHeader F (sectorAddr t)).magic ≠ kvMagic) :
    Current (.first F) ∧ (Configured.first F).store.activeSeq ≤ 7 := by
  obtain ⟨S', hS, hkeeps, hseq⟩ := (keeps_fresh h).initDefaults (by rw [kvInit_seq h]; decide)
  rw [kvInit_seq h] at hseq
  rw [bootValues_none] at hkeeps
  have hlog : -2 ^ 31 ≤ defaultLogLevel ∧ defaultLogLevel < 2 ^ 31 := by decide
  have hboot : -2 ^ 31 ≤ defaultBootCount ∧ defaultBootCount < 2 ^ 31 := by decide
  rw [Configured.first, storageInit, hS]
  exact ⟨⟨hkeeps, hlog, hboot⟩, hseq⟩

theorem Keeps.getString {S : Store} {cfg : Values} (h : Keeps S cfg) (s : Setting) {value : CName}
    (hs : cfg s = some (value ++ [0])) {outLen : ℕ} (hlen : value.length < outLen) :
    configGetString S s.key true outLen = .ok (value ++ [0]) := by
  have hget := h.getBlob s outLen
  rw [hs] at hget
  simp only [configGetString, h.open, kvGetStr, hget]
  simp [Nat.not_lt_of_le hlen, show outLen ≠ 0 by omega]

theorem Keeps.getDeviceName {S : Store} {cfg : Values} (h : Keeps S cfg) {value : CName}
    (hs : cfg .deviceName = some (value ++ [0])) {outLen : ℕ} (hlen : value.length < outLen) :
    configGetDeviceName S true outLen = .ok (value ++ [0]) := h.getString .deviceName hs hlen

theorem i32_u32 {v : ℤ} (h : -2 ^ 31 ≤ v ∧ v < 2 ^ 31) : i32 (u32 v) = v := by
  simp only [i32, u32]
  omega

theorem Current.getI32 (h : Current C) (s : Setting) {value : ℤ}
    (hs : C.settings.stored s = some (le32 (u32 value)))
    (hrange : -2 ^ 31 ≤ value ∧ value < 2 ^ 31) :
    configGetI32 C.store s.key true = .ok value := by
  have hget := h.keeps.getBlob s 4
  have hlen : ¬ 4 < (le32 (u32 value)).length := Nat.lt_irrefl 4
  rw [hs] at hget
  simp only [if_neg hlen] at hget
  simp only [configGetI32, h.keeps.open, kvGetI32, hget, Bool.not_true, Bool.false_eq_true,
    if_false, Except.map]
  rw [fromLe_le32 (u32_lt _), i32_u32 hrange]

theorem Current.getSafeMode (h : Current C) :
    configGetSafeMode C.store true = .ok C.settings.safeMode := by
  have hget := h.keeps.getBlob .safeMode 1
  simp only [configGetSafeMode, h.keeps.open, kvGetU8]
  change (Except.map _ (Except.map _ (kvGetBlob _ _ Setting.safeMode.key 1))) = _
  rw [hget]
  cases hmode : C.settings.safeMode <;> simp [Settings.stored, hmode, Except.map, fromLe]

end Current

/-- Every getter returns the setting, the strings with their terminator. -/
structure Returned (C : Configured) : Prop where
  deviceName : ∀ n, C.settings.deviceName.length < n →
    configGetDeviceName C.store true n = .ok (C.settings.deviceName ++ [0])
  logLevel : configGetLogLevel C.store true = .ok C.settings.logLevel
  wifiSsid : ∀ n, C.settings.wifiSsid.length < n →
    configGetWifiSsid C.store true n = .ok (C.settings.wifiSsid ++ [0])
  wifiPassword : ∀ n, C.settings.wifiPassword.length < n →
    configGetWifiPassword C.store true n = .ok (C.settings.wifiPassword ++ [0])
  safeMode : configGetSafeMode C.store true = .ok C.settings.safeMode
  bootCount : configGetBootCount C.store true = .ok C.settings.bootCount

theorem Current.returned {C : Configured} (h : Current C) : Returned C where
  deviceName _ hn := h.keeps.getDeviceName rfl hn
  logLevel := h.getI32 .logLevel rfl h.logLevel
  wifiSsid _ hn := h.keeps.getString .wifiSsid rfl hn
  wifiPassword _ hn := h.keeps.getString .wifiPassword rfl hn
  safeMode := h.getSafeMode
  bootCount := h.getI32 .bootCount rfl h.bootCount

/-- From a first boot, through successful sets and boots that find every string at its
default: every getter returns the last value set, or the default. -/
theorem config_preserved {F : Memory}
    (hblank : ∀ t < kvNumSectors, (readPageHeader F (sectorAddr t)).magic ≠ kvMagic)
    {evs : List ConfigEvent} {C : Configured}
    (hrun : Run (Guarded Unharmed ConfigStep) (.first F) evs C) : Returned C :=
  (hrun.invariant Current (fun _ _ _ h hs => h.step hs) (current_first hblank).1).returned

/-- The same with one set and one boot. -/
theorem config_preserved_level :
    Returned ((Configured.first blankFlash).set (.logLevel 5)).reboot := by
  obtain ⟨hfirst, hseq⟩ := current_first fun t _ => blankFlash_magic t
  have htyped : (ConfigCall.logLevel 5).Typed := by simp [ConfigCall.Typed]
  have hok := hfirst.keeps.run_ok (.logLevel 5) (by omega) (le_refl 4)
  have hseq' := (hfirst.set _ htyped hok (by omega)).2
  have hset : Guarded Unharmed ConfigStep (.first blankFlash) (.set (.logLevel 5)) _ :=
    ⟨⟨by omega, nofun⟩, .set htyped hok⟩
  have hboot : Guarded Unharmed ConfigStep _ .reboot _ :=
    ⟨⟨by omega, fun _ => ⟨rfl, rfl, rfl⟩⟩,
      .reboot ((Configured.first blankFlash).set (.logLevel 5))⟩
  exact config_preserved (fun t _ => blankFlash_magic t) ((Run.single hset).append (.single hboot))

/-- A device name that was set does not outlive the next boot. -/
theorem device_name_reset : ∃ evs C, Run ConfigStep (.first blankFlash) evs C ∧
    C.settings.deviceName = ascii "x" ∧
      configGetDeviceName C.store true 32 = .ok (ascii "reflex-os" ++ [0]) := by
  obtain ⟨hfirst, hseq⟩ := current_first fun t _ => blankFlash_magic t
  have hok := hfirst.keeps.run_ok (.deviceName (ascii "x")) (by omega) (by decide)
  obtain ⟨hset, hseq'⟩ := hfirst.set (.deviceName (ascii "x")) trivial hok (by omega)
  have hget := (hset.reboot (by omega)).getDeviceName rfl (by decide : _ < 32)
  exact ⟨_, _, (Run.single (.set trivial hok)).append (.single (.reboot _)), rfl, hget⟩

end ReflexOS.Storage
